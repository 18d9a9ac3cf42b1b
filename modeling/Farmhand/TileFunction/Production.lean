import Farmhand.Engine
import Farmhand.TileFunction.Basic

/-!
# Production

Farmland and mines work in cycles. An actor sets the tile up, which occupies the actor; then the
tile works alone, which occupies the tile; then it is ready, and an actor can collect what it has
produced, after which it is idle again. A cycle that was cancelled leaves its status behind without
a task that drives it, and such a tile can be started over.

## Main definitions

* `Production`: The course of a cycle.
* `Engine.isInterrupted`: A tile whose cycle was cancelled.
* `Engine.startProduction`: The start of a cycle.
* `Engine.collectOutput`: Its end.
-/

namespace Farmhand

/-- The course of a cycle. Times are in milliseconds. -/
structure Production where
  /-- The status while the actor sets the tile up. -/
  preparing : String
  setupLabel : String
  setupTime : Nat
  setupDescription : String
  /-- The status while the tile works. -/
  working : String
  workLabel : String
  workTime : Nat
  workDescription : String
  /-- How much the tile has to give in the end. -/
  yield : Int

/-- The growing of a crop. -/
def planting : Production where
  preparing := "planting"
  setupLabel := "plant"
  setupTime := 2000
  setupDescription := "Planting seeds"
  working := "growing"
  workLabel := "grow"
  workTime := 8000
  workDescription := "Crops growing"
  yield := 1

/-- The digging of ore. -/
def mining : Production where
  preparing := "preparing"
  setupLabel := "mine_setup"
  setupTime := 3000
  setupDescription := "Setting up mine"
  working := "mining"
  workLabel := "mine"
  workTime := 10000
  workDescription := "Mining ore"
  yield := 1

/-- The counter of what farmland produces. -/
def crop : String := "wheat"

/-- The counter of what mines produce. -/
def ore : String := "ore"

/-- A demand that an entry of a tile is as it was seen. -/
def Tile.unchanged (t : Tile) (key : String) : WorldOp :=
  .guard t.id key (t.state.get? key)

namespace Engine

/-- Makes a transaction. -/
def transact (e : Engine) (ops : List WorldOp) : Except WorldError Engine :=
  (e.world.transact ops).map fun world => { e with world }

/-- Whether the actor that a tile names as its worker is setting it up. -/
def isSettingUp (e : Engine) (t : Tile) (p : Production) : Bool :=
  match ((t.state.get? workerKey).bind TileValue.toText?).bind e.actorTask? with
  | some task => task.label = p.setupLabel
  | none => false

/-- Whether the cycle of a tile that is not idle was cancelled. -/
def isInterrupted (e : Engine) (t : Tile) (p : Production) : Bool :=
  t.status ≠ readyStatus && (e.tileTask? t.id).isNone && !e.isSettingUp t p

/-- What happens when the actor has set a tile up: the tile works, and is ready in the end. -/
def afterSetup (actor tile : String) (p : Production) : List Action :=
  [.setStatus tile p.working none,
   .start (.tile tile) p.workLabel p.workTime p.workDescription (some actor)
     [.setStatus tile readyStatus (some p.yield)] [] [.setStatus tile idleStatus none]]

/-- Starts a cycle for an actor and a tile as they were seen. The energy is taken together with the
    change of the tile, and given back if the actor's task cannot start. -/
def startProduction (timed : Bool) (a : Actor) (t : Tile) (energy : Nat) (p : Production)
    (e : Engine) : Outcome × Engine :=
  if t.status ≠ idleStatus && !e.isInterrupted t p then
    (.error (.notIdle t.id t.status t.kind), e)
  else
    let ops :=
      [t.unchanged statusKey, t.unchanged workerKey,
       .actor a.id { energy := some (.debit energy) },
       .tile t.id { state := [(statusKey, .text p.preparing), (workerKey, .text a.id)] }]
    match e.transact ops with
    | .error error => (.error (.ofWorldError error), e)
    | .ok e =>
      match e.start timed (.actor a.id) p.setupLabel p.setupTime p.setupDescription (some a.id)
          (afterSetup a.id t.id p) with
      | (e, true) =>
        (.ok { message := some p.setupDescription, duration := some p.setupTime }, e)
      | (e, false) =>
        let refund :=
          [.actor a.id { energy := some (.credit energy) },
           .tile t.id { state := [(statusKey, .text idleStatus)] }]
        let restored :=
          match e.transact refund with
          | .ok e => e
          | .error _ => e
        (.error (.couldNotStart a.id p.setupLabel), restored)

/-- Collects what a tile has to give, for an actor and a tile as they were seen. -/
def collectOutput (a : Actor) (t : Tile) (energy : Nat) (resource : String) (e : Engine) :
    Outcome × Engine :=
  if t.status ≠ readyStatus then (.error (.notReady t.id t.status), e)
  else
    let quantity := max t.quantity 0
    let ops :=
      [t.unchanged statusKey,
       .tile t.id { state := [(statusKey, .text idleStatus), (quantityKey, .int 0)] },
       .resources (ResourceChange.add .empty resource quantity),
       .actor a.id { energy := some (.debit energy) }]
    match e.transact ops with
    | .error error => (.error (.ofWorldError error), e)
    | .ok e =>
      (.ok { message := some s!"Collected {quantity} {resource}", data := some (.int quantity) }, e)

end Engine

end Farmhand
