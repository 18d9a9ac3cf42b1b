import Farmhand.Duration
import Farmhand.Event

/-!
# The Engine

The state that all runs share, and the tasks in it. A task occupies an actor or a tile for some
time. While it lasts, the world shows it on the actor or tile; when its timer is due, what was to
happen at its end happens, and then the actor or tile is free, unless a new task has taken it in
the meantime. A timer belongs to one task only: it carries the task's number, and does nothing when
the task with that number is gone.

## Main definitions

* `TaskKey`: What a task occupies.
* `Action`: What can happen at the end of a task.
* `Slot`, `Timer`: A task that is under way, and the moment at which it ends.
* `Engine`: The shared state.
* `Engine.start`, `Engine.fire`, `Engine.cancelAll`: The life of a task.
* `Engine.settle`: All timers that are due.
* `Engine.stop`: The stop of a run.
-/

namespace Farmhand

/-- What a task occupies. -/
inductive TaskKey where
  | actor (id : String)
  | tile (id : String)
deriving DecidableEq

namespace TaskKey

/-- The id of the actor or tile. -/
def id : TaskKey → String
  | actor id => id
  | tile id => id

/-- A key as text. -/
def render : TaskKey → String
  | actor id => s!"actor:{id}"
  | tile id => s!"tile:{id}"

end TaskKey

/-- What can happen at the end of a task. -/
inductive Action where
  /-- A note with the time at which it was made. -/
  | note (text : String)
  /-- A new status of a tile, and a new quantity if one is given. -/
  | setStatus (tile status : String) (quantity : Option Int)
  /-- A new task with its own end, and what happens at once when it can or cannot start. -/
  | start (key : TaskKey) (label : String) (duration : Nat) (description : String)
      (owner : Option String) (atEnd accepted refused : List Action)

mutual

/-- The number of tasks that an action can start, now or later. -/
def Action.starts : Action → Nat
  | .note _ => 0
  | .setStatus _ _ _ => 0
  | .start _ _ _ _ _ atEnd accepted refused =>
    1 + Action.startsOf atEnd + Action.startsOf accepted + Action.startsOf refused

/-- The number of tasks that several actions can start. -/
def Action.startsOf : List Action → Nat
  | [] => 0
  | action :: rest => action.starts + Action.startsOf rest

end

/-- A task that is under way. -/
structure Slot where
  task : Task
  /-- The number of the task, which no other task has. -/
  generation : Nat
  /-- The timer has run out and the end of the task is under way. -/
  completing : Bool
  /-- What happens at the end. -/
  atEnd : List Action

/-- The moment at which a task ends. -/
structure Timer where
  due : Nat
  key : TaskKey
  generation : Nat
deriving DecidableEq

/-- The state that all runs share. -/
structure Engine where
  world : World
  /-- The tasks under way, at most one for each key. -/
  slots : List (TaskKey × Slot)
  /-- The number of the next task. -/
  nextGeneration : Nat
  /-- The timers, the first started in front. -/
  timers : List Timer
  /-- The time of one step at speed one, in milliseconds. -/
  stepTime : Nat
  /-- The number of times all motion was stopped. -/
  motionEpoch : Nat
  /-- The number of moves asked for. -/
  moveRequests : Nat
  /-- The time in milliseconds. -/
  now : Nat
  /-- Whether each interpreter may go on, by its number. -/
  running : List Bool
  /-- What was told, the last in front. -/
  log : List Event
  /-- The notes made at the ends of tasks, the last in front. -/
  notes : List (Nat × String)

namespace Engine

/-- A world at the start of time, without tasks. -/
def new (world : World) (stepTime : Nat) : Engine where
  world
  slots := []
  nextGeneration := 1
  timers := []
  stepTime
  motionEpoch := 0
  moveRequests := 0
  now := 0
  running := []
  log := []
  notes := []

/-- Tells something. -/
def emit (e : Engine) (event : Event) : Engine :=
  { e with log := event :: e.log }

/-- Tells several things in order. -/
def emitAll (e : Engine) (events : List Event) : Engine :=
  events.foldl emit e

/-- The task under way on a key, with its bookkeeping. -/
def slot? (e : Engine) (key : TaskKey) : Option Slot :=
  (e.slots.find? fun (k, _) => k = key).map Prod.snd

/-- The task under way on a key. -/
def task? (e : Engine) (key : TaskKey) : Option Task :=
  (e.slot? key).map Slot.task

/-- The task under way on an actor. -/
def actorTask? (e : Engine) (id : String) : Option Task :=
  e.task? (.actor id)

/-- The task under way on a tile. -/
def tileTask? (e : Engine) (id : String) : Option Task :=
  e.task? (.tile id)

/-- The number of tasks under way. -/
def activeCount (e : Engine) : Nat :=
  e.slots.length

/-- Puts a task on a key in place of the one that is there. -/
def putSlot (e : Engine) (key : TaskKey) (s : Slot) : Engine :=
  { e with slots := (key, s) :: e.slots.filter fun (k, _) => k ≠ key }

/-- Takes the task off a key. -/
def dropSlot (e : Engine) (key : TaskKey) : Engine :=
  { e with slots := e.slots.filter fun (k, _) => k ≠ key }

/-- Shows on an actor or tile of the world which task it has. Keys of nothing in the world show
    nothing. -/
def showTask (e : Engine) (key : TaskKey) (task : Option Task) : Engine :=
  let shown :=
    match key with
    | .actor id => e.world.updateActor id { task := some task }
    | .tile id => e.world.updateTile id { task := some task }
  match shown with
  | .ok world => { e with world }
  | .error _ => e

/-- Whether a task can start on a key: it is free, or its task is just ending. -/
def isFree (e : Engine) (key : TaskKey) : Bool :=
  match e.slot? key with
  | some s => s.completing
  | none => true

/-- Starts a task, if its key is free and there is something to time it. Tells whether it did. -/
def start (e : Engine) (timed : Bool) (key : TaskKey) (label : String) (duration : Nat)
    (description : String) (owner : Option String) (atEnd : List Action) : Engine × Bool :=
  if e.isFree key && timed then
    let task : Task := ⟨label, description, owner, e.now, duration⟩
    let generation := e.nextGeneration
    let started := (e.showTask key (some task)).putSlot key ⟨task, generation, false, atEnd⟩
    ({ started with
        nextGeneration := generation + 1
        timers := e.timers ++ [⟨e.now + duration, key, generation⟩] }, true)
  else (e, false)

/-- The status and quantity of a tile, written at the end of a task. A tile that is not there is
    left alone. -/
def setStatus (e : Engine) (tile status : String) (quantity : Option Int) : Engine :=
  let entries := (statusKey, TileValue.text status) ::
    match quantity with
    | some n => [(quantityKey, .int n)]
    | none => []
  match e.world.updateTile tile { state := entries } with
  | .ok world => { e with world }
  | .error _ => e

mutual

/-- Does what happens at the end of a task. -/
def perform (e : Engine) : Action → Engine
  | .note text => { e with notes := (e.now, text) :: e.notes }
  | .setStatus tile status quantity => e.setStatus tile status quantity
  | .start key label duration description owner atEnd accepted refused =>
    match e.start true key label duration description owner atEnd with
    | (e, true) => performAll e accepted
    | (e, false) => performAll e refused

/-- Does several things in order. -/
def performAll (e : Engine) : List Action → Engine
  | [] => e
  | action :: rest => performAll (perform e action) rest

end

/-- Ends a task whose end has happened, unless another task has taken its key. -/
def finish (e : Engine) (key : TaskKey) (generation : Nat) : Engine :=
  match e.slot? key with
  | some s => if s.generation = generation then (e.dropSlot key).showTask key none else e
  | none => e

/-- What happens when a timer runs out: nothing if its task is gone or already ending, and the end
    of the task otherwise. -/
def fire (e : Engine) (t : Timer) : Engine :=
  match e.slot? t.key with
  | some s =>
    if s.generation = t.generation && !s.completing then
      let ending := e.putSlot t.key { s with completing := true, atEnd := [] }
      (ending.performAll s.atEnd).finish t.key t.generation
    else e
  | none => e

/-- Ends all tasks before their time: nothing of what was to happen at their ends happens. -/
def cancelAll (e : Engine) : Engine :=
  (e.slots.map Prod.fst).foldl (fun e key => e.showTask key none) { e with slots := [] }

/-- The first of the timers that are due the earliest. -/
def earliest? : List Timer → Option Timer
  | [] => none
  | t :: rest =>
    match earliest? rest with
    | some u => if u.due < t.due then some u else some t
    | none => some t

/-- How many more timers can run out before all is quiet: those that are there, and those of the
    tasks that can still start. -/
def pending (e : Engine) : Nat :=
  e.slots.foldl (fun n (_, s) => n + Action.startsOf s.atEnd) e.timers.length

/-- Lets at most `count` timers run out that are due at or before a time, in the order in which
    they are due. The clock stands at the time of each. -/
def fireDue (time : Nat) : Nat → Engine → Engine
  | 0, e => e
  | count + 1, e =>
    match earliest? e.timers with
    | none => e
    | some t =>
      if t.due ≤ time then
        let e := { e with timers := e.timers.erase t, now := max e.now t.due }
        fireDue time count (e.fire t)
      else e

/-- Lets all timers run out that are due at or before a time, and sets the clock to that time. -/
def advanceTo (e : Engine) (time : Nat) : Engine :=
  let e := fireDue time e.pending e
  { e with now := max e.now time }

/-- Lets all timers run out that are due by now. -/
def settle (e : Engine) : Engine :=
  e.advanceTo e.now

/-- Whether an interpreter may go on. -/
def isRunning (e : Engine) (handle : Nat) : Bool :=
  e.running.getD handle false

/-- Says whether an interpreter may go on. -/
def setRunning (e : Engine) (handle : Nat) (value : Bool) : Engine :=
  { e with running := e.running.set handle value }

/-- Lets no motion that is under way reach its target. -/
def stopMotion (e : Engine) : Engine :=
  { e with motionEpoch := e.motionEpoch + 1 }

/-- Stops an interpreter. Its call under way may finish; all tasks end before their time, and no
    motion under way reaches its target. -/
def stop (e : Engine) (handle : Nat) : Engine :=
  ((e.setRunning handle false).cancelAll).stopMotion

end Engine

namespace Task

/-- How much of a task is done, in percent. -/
def percentAt (t : Task) (now : Nat) : Float :=
  if t.duration = 0 then 100.0
  else
    let ratio := Duration.seconds (now - t.start) / Duration.seconds t.duration
    (if ratio > 1.0 then 1.0 else ratio) * 100.0

/-- How much of a task is done, in whole percent. -/
def wholePercentAt (t : Task) (now : Nat) : Nat :=
  ((Decimal.truncated? (t.percentAt now)).getD 0).toNat

/-- How much longer a task takes. -/
def remainingAt (t : Task) (now : Nat) : Nat :=
  t.start + t.duration - now

end Task

namespace Engine

/-- How much of the task on a key is done, in percent; nothing if there is no task. -/
def progress (e : Engine) (key : TaskKey) : Float :=
  match e.task? key with
  | some t => t.percentAt e.now
  | none => 0.0

/-- The longest time that a task on one of some keys still takes. -/
def remainingTime (e : Engine) (keys : List TaskKey) : Nat :=
  ((keys.filterMap e.task?).map (Task.remainingAt · e.now)).foldl max 0

end Engine

end Farmhand
